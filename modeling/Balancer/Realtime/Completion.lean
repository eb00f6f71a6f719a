import Balancer.Realtime.Agreement

/-!
# Handshakes that are completed

Runs in which nothing fails on the connection of a node: every message is accepted and delivered
whole, and a side gives up only behind something that it has received. The other nodes and their
connections are not restricted.

* `rank`: how many steps of the handshake are left.
* `SessionStep.progress`: neither side gives up, and every step of the handshake lowers the rank.
* `handshake_finishes`: the handshake comes to its end and does not stop before.
-/

namespace Balancer

open Cpp Plusaes LbRtThread

/-! ## Nothing fails -/

/-- Every message has been accepted and delivered whole, and the vector of the reporter arrives. -/
structure Link.Intact (ℓ : Link) : Prop where
  unbroken : ¬ ℓ.Broken
  sent : ℓ.toReporter.written <+: [hello, acknowledgement]
  read : ℓ.toReporter.received <+: ℓ.toReporter.written
  written : ℓ.toBalancer.written = ℓ.messages
  received : ℓ.toBalancer.received <+: ℓ.messages
  iv : ℓ.pc ≠ .backlog → NoZeroBefore15 ℓ.conn.iv

/-- A step on which no call fails. -/
structure Reliable (pc' : RtPc) (current current' : Option Link) : Prop where
  intact : ∀ ℓ, current' = some ℓ → ℓ.Intact
  balancer : pc' = .giveUp ∨ pc' = .leave → current' ≠ current
  reporter : ∀ ℓ ℓ', current = some ℓ → current' = some ℓ' → ℓ'.pc = .leave →
    ℓ'.toReporter.received ≠ ℓ.toReporter.received

/-- Neither side has given up behind `connect`. -/
structure Going (pc : RtPc) (current : Option Link) : Prop where
  intact : ∀ ℓ, current = some ℓ → ℓ.Intact
  balancer : pc ≠ .giveUp ∧ pc ≠ .leave ∧ pc ≠ .openSocket
  reporter : ∀ ℓ, current = some ℓ → ℓ.pc ≠ .leave

namespace Link

variable {aes : Cipher} {ℓ ℓ' : Link}

theorem Intact.read_first (h : ℓ.Intact) {chunk : Bytes}
    (hRead : ℓ.toReporter.received = [chunk]) : chunk = hello := by
  have hPrefix := h.read.trans h.sent
  rw [hRead, List.cons_prefix_cons] at hPrefix
  exact hPrefix.1

theorem Intact.read_second (h : ℓ.Intact) {first chunk : Bytes}
    (hRead : ℓ.toReporter.received = [first, chunk]) : chunk = acknowledgement := by
  have hPrefix := h.read.trans h.sent
  rw [hRead, List.cons_prefix_cons, List.cons_prefix_cons] at hPrefix
  exact hPrefix.2.1

theorem Intact.sent_one (h : ℓ.Intact) {a : Bytes} (hWritten : ℓ.toReporter.written = [a]) :
    ℓ.toReporter.written = [hello] := by
  have hPrefix := h.sent
  rw [hWritten, List.cons_prefix_cons] at hPrefix
  rw [hWritten, hPrefix.1]

theorem Intact.sent_two (h : ℓ.Intact) {a b : Bytes} (hWritten : ℓ.toReporter.written = [a, b]) :
    ℓ.toReporter.written = [hello, acknowledgement] := by
  have hPrefix := h.sent
  rw [hWritten, List.cons_prefix_cons, List.cons_prefix_cons] at hPrefix
  rw [hWritten, hPrefix.1, hPrefix.2.1]

theorem Intact.received_first (h : ℓ.Intact) (hInv : ℓ.Inv aes) {chunk : Bytes}
    (hReceived : ℓ.toBalancer.received = [chunk]) : chunk = HR_HANDSHAKE_MSG_2 := by
  have hPrefix := h.received
  rw [hReceived] at hPrefix
  rcases hInv.stage with hSilent | hGreeted | hEstablished
  · rw [hSilent.messages] at hPrefix
    cases List.prefix_nil.mp hPrefix
  · rw [hGreeted.messages, List.cons_prefix_cons] at hPrefix
    exact hPrefix.1
  · obtain ⟨sent, hMessages, -⟩ := hEstablished.messages
    rw [hMessages, List.cons_prefix_cons] at hPrefix
    exact hPrefix.1

theorem Intact.received_second (h : ℓ.Intact) (hInv : ℓ.Inv aes) {first chunk : Bytes}
    (hReceived : ℓ.toBalancer.received = [first, chunk]) : chunk = ℓ.conn.ivStr := by
  have hPrefix := h.received
  rw [hReceived] at hPrefix
  rcases hInv.stage with hSilent | hGreeted | hEstablished
  · rw [hSilent.messages] at hPrefix
    cases List.prefix_nil.mp hPrefix
  · rw [hGreeted.messages, List.cons_prefix_cons] at hPrefix
    cases List.prefix_nil.mp hPrefix.2
  · obtain ⟨sent, hMessages, -⟩ := hEstablished.messages
    rw [hMessages, List.cons_prefix_cons, List.cons_prefix_cons] at hPrefix
    exact hPrefix.2.1

end Link

/-! ## The rank -/

/-- The steps of the handshake that are left to the reporter. -/
def ReporterPc.rank : ReporterPc → Nat
  | .backlog => 5
  | .readMsg1 => 4
  | .writeMsg2 _ _ => 3
  | .readMsg3 _ => 2
  | .writeMsg4 _ => 1
  | .report | .leave | .closed => 0

/-- The steps of the handshake that are left to the load balancer, but for the last one. -/
def RtPc.rank : RtPc → Nat
  | .connect => 2
  | .awaitMsg2 => 1
  | _ => 0

def rank (pc : RtPc) (current : Option Link) : Nat :=
  pc.rank + (current.elim 5 fun ℓ => ℓ.pc.rank)

/-- The reports sent on a connection. -/
def reportsOf (current : Option Link) : List HealthReport := current.elim [] Link.reports

/-- A step of the handshake, or a message received in the report loop: the connection has changed,
and not by a report. -/
def Moves (current current' : Option Link) : Prop :=
  current' ≠ current ∧ reportsOf current' = reportsOf current

/-- **One step of the reporter.** -/
theorem ReporterStep.progress {aes : Cipher} {ℓ ℓ' : Link} (hStep : ReporterStep aes ℓ ℓ')
    (hInv : ℓ.Inv aes) (hGoing : ℓ.pc ≠ .leave) (hIntact : ℓ'.Intact)
    (hReliable : ℓ'.pc = .leave → ℓ'.toReporter.received ≠ ℓ.toReporter.received) :
    ℓ'.pc ≠ .leave ∧
      (ℓ'.pc.rank < ℓ.pc.rank ∨ ℓ'.pc.rank = ℓ.pc.rank ∧ ℓ'.reports ≠ ℓ.reports) := by
  have hAt := hInv.atPc
  unfold Link.AtPc at hAt
  cases hStep with
  | accepts hPc conn =>
    rw [hPc]
    exact ⟨nofun, Or.inl (Nat.lt_succ_self 4)⟩
  | readsMsg1 hPc hRead hAnswer =>
    rw [hPc]
    exact ⟨nofun, Or.inl (Nat.lt_succ_self 3)⟩
  | refusesMsg1 hPc hRead hAnswer =>
    rw [hPc] at hAt
    cases hRead with
    | fails => exact absurd rfl (hReliable rfl)
    | returns chunk h hLength hEnd =>
      have hReceived : (ℓ.toReporter.read chunk h).received = [chunk] := by
        rw [Pipe.received_read, hAt.2]
        rfl
      obtain rfl := hIntact.read_first hReceived
      rw [answerHello_hello] at hAnswer
      cases eq_of_reads hAnswer
  | writesMsg2 hPc hWrite =>
    rw [hPc]
    exact ⟨nofun, Or.inl (Nat.lt_succ_self 2)⟩
  | readsMsg3 hPc hRead hAnswer =>
    rw [hPc]
    exact ⟨nofun, Or.inl (Nat.lt_succ_self 1)⟩
  | refusesMsg3 hPc hRead hAnswer =>
    rw [hPc] at hAt
    obtain ⟨-, ⟨first, hFirst, -⟩, rfl⟩ := hAt
    cases hRead with
    | fails => exact absurd rfl (hReliable rfl)
    | returns chunk h hLength hEnd =>
      have hReceived : (ℓ.toReporter.read chunk h).received = [first, chunk] := by
        rw [Pipe.received_read, hFirst]
        rfl
      obtain rfl := hIntact.read_second hReceived
      rw [answerAcknowledgement_acknowledgement] at hAnswer
      cases eq_of_reads hAnswer
  | writesMsg4 hPc hWrite =>
    rw [hPc]
    exact ⟨nofun, Or.inl (Nat.lt_succ_self 0)⟩
  | reports hPc hMessage hWrite =>
    rw [hPc]
    refine ⟨nofun, Or.inr ⟨rfl, ?_⟩⟩
    simp
  | failsMsg2 hPc hWrite | failsMsg4 hPc hWrite | failsReport hPc hMessage hWrite =>
    cases hWrite
    exact absurd rfl (hReliable rfl)
  | closes hPc => exact absurd hPc hGoing
  | resets => exact absurd (Or.inl rfl) hIntact.unbroken

/-! ## One session -/

section Session

variable {aes : Cipher} {encKey : Bytes} {clock : Int} {s s' : Session}

/-- The second message is accepted, and so is the fourth. -/
theorem SessionInv.not_refused (hInv : SessionInv aes s) {ℓ ℓ' : Link}
    (hLink : s.current = some ℓ) {received : Bytes} (hRecv : ℓ.Recv (some received) ℓ')
    (hIntact : ℓ'.Intact) :
    (s.thread.pc = .awaitMsg2 → ¬ Reads (LbRtThread.awaitMsg2 received) false) ∧
      (s.thread.pc = .awaitMsg4 → ¬ Reads (LbRtThread.awaitMsg4 stringAt received) none) := by
  have hAt := hInv.atPc.of_current hLink
  have hLinkInv := hRecv.inv (hInv.current ℓ hLink).1
  have hReceived := hRecv.received_eq
  constructor
  · intro hPc hReply
    rw [hPc] at hAt
    rw [hAt.1] at hReceived
    obtain rfl := hIntact.received_first hLinkInv hReceived
    have hMsg2 : LbRtThread.awaitMsg2 HR_HANDSHAKE_MSG_2 = .ok true :=
      strncmpEq_append HR_HANDSHAKE_MSG_2 _
    rw [hMsg2] at hReply
    cases eq_of_reads hReply
  · intro hPc hReply
    rw [hPc] at hAt
    rw [hAt.1] at hReceived
    obtain rfl := hIntact.received_second hLinkInv hReceived
    have hEstablished := hLinkInv.established hReceived (by simp [HealthReporterConnection.ivStr])
    have hAccepted : ℓ'.pc ≠ .backlog := by
      intro hBacklog
      have hSilent := hLinkInv.atPc
      unfold Link.AtPc at hSilent
      rw [hBacklog] at hSilent
      cases hSilent.1.state.symm.trans hEstablished.state
    rw [awaitMsg4_of_noZeroBefore15 (hIntact.iv hAccepted)] at hReply
    cases eq_of_reads hReply

/-- A thread that has not left stays in the report loop. -/
theorem RtStep.inReportLoop {t t' : RtThread} {node node' : NodeState FloatBits}
    (hStep : RtStep aes encKey clock t node t' node') (hLoop : t.pc.InReportLoop)
    (hNot : t.pc ≠ .leave) : t'.pc.InReportLoop := by
  cases hStep with
  | socketFails hPc | socketOpens hPc | connectFails hPc | connects hPc | noMsg2 hPc | noMsg4 hPc
  | givesUp hPc | refusesMsg2 hPc _ | acceptsMsg2 hPc _ | refusesMsg4 hPc _ =>
    rw [hPc] at hLoop
    exact absurd hLoop id
  | leaves hPc => exact absurd hPc hNot
  | ignores hPc _ => exact hLoop
  | acceptsMsg4 hPc _ | disconnected hPc | rejects hPc _ | applies hPc _ | storesDown hPc
  | storesCpu hPc | storesMem hPc | readsClock hPc | storesLastChecked hPc | storesUp hPc => trivial

theorem SessionStep.inReportLoop (hStep : SessionStep aes encKey clock s s')
    (hLoop : s.thread.pc.InReportLoop) (hNot : s.thread.pc ≠ .leave) :
    s'.thread.pc.InReportLoop := by
  rcases hStep.rtStep with hThread | ⟨hThread, -⟩
  · exact hThread.inReportLoop hLoop hNot
  · rwa [hThread]

/-- The thread has received something and goes on. -/
theorem Going.received {pc pc' : RtPc} {ℓ ℓ' : Link} (h : Going pc (some ℓ)) (hSame : ℓ'.pc = ℓ.pc)
    (hIntact : ∀ ℓ₁, some ℓ' = some ℓ₁ → ℓ₁.Intact)
    (hPc : pc' ≠ .giveUp ∧ pc' ≠ .leave ∧ pc' ≠ .openSocket) : Going pc' (some ℓ') where
  intact := hIntact
  balancer := hPc
  reporter := by
    intro ℓ₁ hLink
    obtain rfl := Option.some.inj hLink
    rw [hSame]
    exact h.reporter ℓ rfl

/-- **One step of a session.** Neither side gives up, and a step of the handshake lowers the rank or
is the last one. -/
theorem SessionStep.progress (hStep : SessionStep aes encKey clock s s') (hInv : SessionInv aes s)
    (h : Going s.thread.pc s.current)
    (hReliable : Reliable s'.thread.pc s.current s'.current) :
    Going s'.thread.pc s'.current ∧ (s'.thread.pc.InReportLoop ∨
      rank s'.thread.pc s'.current < rank s.thread.pc s.current ∨
      rank s'.thread.pc s'.current = rank s.thread.pc s.current ∧
        ¬ Moves s.current s'.current) := by
  cases hStep with
  | works hPc hStep =>
    have hLoop := (hStep.of_isStoring (hPc.resolve_left h.balancer.2.2)).1
    refine ⟨⟨hReliable.intact, ⟨?_, ?_, ?_⟩, h.reporter⟩, Or.inl hLoop⟩
    · exact fun hGiveUp => hReliable.balancer (Or.inl hGiveUp) rfl
    · exact fun hLeave => hReliable.balancer (Or.inr hLeave) rfl
    · intro hOpen
      rw [hOpen] at hLoop
      exact hLoop
  | connectFails hPc => exact absurd rfl (hReliable.balancer (Or.inl rfl))
  | connects hPc hSend =>
    have hNone := hInv.atPc.current_eq_none (Or.inr hPc)
    have hBacklog := hSend.keeps.pc
    refine ⟨⟨hReliable.intact, ⟨nofun, nofun, nofun⟩, ?_⟩, Or.inr (Or.inl ?_)⟩
    · intro ℓ hLink
      obtain rfl := Option.some.inj hLink
      rw [hBacklog]
      nofun
    · rw [hPc, hNone, rank, rank, Option.elim_some, hBacklog]
      exact Nat.lt_succ_self 6
  | noMsg2 hPc hLink hRecv | noMsg4 hPc hLink hRecv =>
    cases hRecv
    exact absurd hLink.symm (hReliable.balancer (Or.inl rfl))
  | refusesMsg2 hPc hLink hRecv hReply =>
    have hNot := hInv.not_refused hLink hRecv (hReliable.intact _ rfl)
    exact absurd hReply (hNot.1 hPc)
  | acceptsMsg2 hPc hLink hRecv hReply hSend =>
    have hSame := hSend.keeps.pc.trans hRecv.keeps.pc
    rw [hLink] at h ⊢
    refine ⟨h.received hSame hReliable.intact ⟨nofun, nofun, nofun⟩, Or.inr (Or.inl ?_)⟩
    rw [hPc, rank, rank, Option.elim_some, Option.elim_some, hSame]
    exact Nat.add_lt_add_right Nat.one_pos _
  | refusesMsg4 hPc hLink hRecv hReply =>
    have hNot := hInv.not_refused hLink hRecv (hReliable.intact _ rfl)
    exact absurd hReply (hNot.2 hPc)
  | acceptsMsg4 hPc hLink hRecv hReply =>
    rw [hLink] at h
    exact ⟨h.received hRecv.keeps.pc hReliable.intact ⟨nofun, nofun, nofun⟩, Or.inl trivial⟩
  | givesUp hPc => exact absurd hPc h.balancer.1
  | disconnected hPc hLink hRecv =>
    cases hRecv
    exact absurd hLink.symm (hReliable.balancer (Or.inr rfl))
  | ignores hPc hLink hRecv hOutcome =>
    rw [hLink] at h
    refine ⟨h.received hRecv.keeps.pc hReliable.intact h.balancer, Or.inl ?_⟩
    rw [hPc]
    trivial
  | rejects hPc hLink hRecv hOutcome | applies hPc hLink hRecv hOutcome =>
    rw [hLink] at h
    exact ⟨h.received hRecv.keeps.pc hReliable.intact ⟨nofun, nofun, nofun⟩, Or.inl trivial⟩
  | leaves hPc => exact absurd hPc h.balancer.2.1
  | @reporter ℓ ℓ' hLink hStep =>
    obtain ⟨hNot, hRank⟩ := hStep.progress (hInv.current ℓ hLink).1 (h.reporter ℓ hLink)
      (hReliable.intact ℓ' rfl) (hReliable.reporter ℓ ℓ' hLink rfl)
    refine ⟨⟨hReliable.intact, h.balancer, ?_⟩, Or.inr ?_⟩
    · intro ℓ₁ h₁
      obtain rfl := Option.some.inj h₁
      exact hNot
    · rw [hLink, rank, rank, Option.elim_some, Option.elim_some]
      refine hRank.imp (fun hLt => Nat.add_lt_add_left hLt _) ?_
      rintro ⟨hEq, hReports⟩
      refine ⟨by rw [hEq], ?_⟩
      rintro ⟨-, hSame⟩
      exact hReports hSame
  | oldReporter hLink hStep =>
    exact ⟨h, Or.inr (Or.inr ⟨rfl, fun hMoves => hMoves.1 rfl⟩)⟩

end Session

/-! ## What is possible -/

/-- A step of the handshake that the reporter can make. -/
def Link.CanMove (aes : Cipher) (ℓ : Link) : Prop :=
  ∃ ℓ', ReporterStep aes ℓ ℓ' ∧ ℓ'.Intact ∧ ℓ'.pc ≠ .leave ∧ ℓ'.pc ≠ ℓ.pc ∧ ℓ'.reports = ℓ.reports

namespace Link

variable {aes : Cipher} {ℓ : Link}

theorem Intact.not_reset (h : ℓ.Intact) {ℓ' : Link} (hReset : ℓ'.reset = ℓ.reset)
    (hPc : ℓ'.pc ≠ .closed) : ¬ ℓ'.Broken := by
  rintro (hBroken | hClosed)
  · exact h.unbroken (Or.inl (hReset.symm.trans hBroken))
  · exact hPc hClosed

/-- What the reporter does before it has read the third message. -/
theorem Intact.canMove (h : ℓ.Intact) (hInv : ℓ.Inv aes)
    (hPc : ℓ.pc ≠ .leave ∧ ℓ.pc ≠ .report ∧ ∀ buf, ℓ.pc ≠ .readMsg3 buf) : ℓ.CanMove aes := by
  have hAt := hInv.atPc
  unfold AtPc at hAt
  cases hReporter : ℓ.pc with
  | backlog =>
    refine ⟨_, .accepts hReporter ⟨[], Network.onesIv⟩, ?_, by simp, by simp [hReporter], rfl⟩
    exact ⟨h.not_reset rfl (by simp), h.sent, h.read, h.written, h.received,
      fun _ => Network.noZeroBefore15_onesIv⟩
  | readMsg1 =>
    rw [hReporter] at hAt
    obtain ⟨hSilent, hNone⟩ := hAt
    obtain ⟨a, hOne, -, -⟩ := hSilent.prefix_hello hInv.sent hNone
    have hWritten := h.sent_one hOne
    have hInFlight : ℓ.toReporter.inFlight = hello := by
      have hRest : ℓ.toReporter.written = ℓ.toReporter.received ++ [hello] := by
        rw [hWritten, hNone]
        rfl
      rw [Pipe.inFlight_of_written hRest, List.flatten_singleton]
    have hRead := Read.returns hello (by rw [hInFlight]) (by decide) nofun
    refine ⟨_, .readsMsg1 hReporter hRead (reads_of_ok answerHello_hello), ?_, by simp,
      by simp [hReporter], rfl⟩
    refine ⟨h.not_reset rfl (by simp), h.sent, ?_, h.written, h.received,
      fun _ => h.iv (by simp [hReporter])⟩
    rw [Pipe.received_read, Pipe.written_read, hNone, hWritten]
    exact List.prefix_rfl
  | writeMsg2 buf reply =>
    rw [hReporter] at hAt
    obtain ⟨-, -, -, rfl⟩ := hAt
    have hWrite : ℓ.Write HR_HANDSHAKE_MSG_2 true _ := .accepts _ List.prefix_rfl (by decide)
    refine ⟨_, .writesMsg2 hReporter hWrite, ?_, by simp, by simp [hReporter], rfl⟩
    refine ⟨h.not_reset rfl (by simp), h.sent, h.read, ?_,
      h.received.trans (List.prefix_append _ _), fun _ => h.iv (by simp [hReporter])⟩
    rw [Pipe.written_write, h.written]
  | readMsg3 buf => exact absurd hReporter (hPc.2.2 buf)
  | writeMsg4 reply =>
    rw [hReporter] at hAt
    obtain ⟨-, -, rfl⟩ := hAt
    have hWrite : ℓ.Write ℓ.conn.ivStr true _ :=
      .accepts _ List.prefix_rfl (by simp [HealthReporterConnection.ivStr])
    refine ⟨_, .writesMsg4 hReporter hWrite, ?_, by simp, by simp [hReporter], rfl⟩
    refine ⟨h.not_reset rfl (by simp), h.sent, h.read, ?_,
      h.received.trans (List.prefix_append _ _), fun _ => h.iv (by simp [hReporter])⟩
    rw [Pipe.written_write, h.written]
  | report => exact absurd hReporter hPc.2.1
  | leave => exact absurd hReporter hPc.1
  | closed => exact absurd (Or.inr hReporter) h.unbroken

/-- The reporter reads the third message. -/
theorem Intact.canMove_msg3 (h : ℓ.Intact) (hInv : ℓ.Inv aes) {buf : Bytes}
    (hPc : ℓ.pc = .readMsg3 buf) {a b : Bytes} (hTwo : ℓ.toReporter.written = [a, b]) :
    ℓ.CanMove aes := by
  have hAt := hInv.atPc
  unfold AtPc at hAt
  rw [hPc] at hAt
  obtain ⟨-, ⟨q, hFirst, -⟩, rfl⟩ := hAt
  have hWritten := h.sent_two hTwo
  obtain rfl := h.read_first hFirst
  have hInFlight : ℓ.toReporter.inFlight = acknowledgement := by
    have hRest : ℓ.toReporter.written = ℓ.toReporter.received ++ [acknowledgement] := by
      rw [hWritten, hFirst]
      rfl
    rw [Pipe.inFlight_of_written hRest, List.flatten_singleton]
  have hRead := Read.returns acknowledgement (by rw [hInFlight]) (by decide) nofun
  have hAnswer := reads_of_ok (answerAcknowledgement_acknowledgement ℓ.conn)
  refine ⟨_, .readsMsg3 hPc hRead hAnswer, ?_, by simp, by simp [hPc], rfl⟩
  refine ⟨h.not_reset rfl (by simp), h.sent, ?_, h.written, h.received,
    fun _ => h.iv (by simp [hPc])⟩
  rw [Pipe.received_read, Pipe.written_read, hFirst, hWritten]
  exact List.prefix_rfl

end Link

section Session

variable {aes : Cipher} {encKey : Bytes} {clock : Int} {s : Session}

/-- A step of the handshake is possible, of either side. -/
def Session.CanMove (aes : Cipher) (encKey : Bytes) (clock : Int) (s : Session) : Prop :=
  ∃ s', SessionStep aes encKey clock s s' ∧ Reliable s'.thread.pc s.current s'.current ∧
    Moves s.current s'.current

theorem Session.canMove_of_reporter {ℓ : Link} (hLink : s.current = some ℓ) (h : ℓ.CanMove aes)
    (hPc : s.thread.pc ≠ .giveUp ∧ s.thread.pc ≠ .leave) : s.CanMove aes encKey clock := by
  obtain ⟨ℓ', hStep, hIntact, hNot, hMoved, hReports⟩ := h
  refine ⟨_, .reporter hLink hStep, ⟨?_, ?_, ?_⟩, ?_, ?_⟩
  · intro ℓ₁ h₁
    obtain rfl := Option.some.inj h₁
    exact hIntact
  · rintro (hGiveUp | hLeave)
    · exact absurd hGiveUp hPc.1
    · exact absurd hLeave hPc.2
  · intro ℓ₁ ℓ₂ _ h₂ hLeave
    obtain rfl := Option.some.inj h₂
    exact absurd hLeave hNot
  · rw [hLink]
    intro hSame
    exact hMoved (congrArg Link.pc (Option.some.inj hSame))
  · rw [hLink]
    exact hReports

/-- The load balancer moves: it has received something, and the reporter stands still. -/
theorem Session.canMove_of_balancer {s' : Session} {ℓ ℓ' : Link}
    (hStep : SessionStep aes encKey clock s s') (hLink : s.current = some ℓ)
    (hLink' : s'.current = some ℓ') (hIntact : ℓ'.Intact) (hPc : ℓ'.pc = ℓ.pc)
    (hReports : ℓ'.reports = ℓ.reports)
    (hReceived : ℓ'.toBalancer.received ≠ ℓ.toBalancer.received) (hNot : ℓ.pc ≠ .leave) :
    s.CanMove aes encKey clock := by
  have hMoved : s'.current ≠ s.current := by
    rw [hLink, hLink']
    intro hSame
    exact hReceived (congrArg (fun ℓ => ℓ.toBalancer.received) (Option.some.inj hSame))
  refine ⟨s', hStep, ⟨?_, fun _ => hMoved, ?_⟩, hMoved, ?_⟩
  · intro ℓ₁ h₁
    obtain rfl := Option.some.inj (hLink'.symm.trans h₁)
    exact hIntact
  · intro ℓ₁ ℓ₂ _ h₂ hLeave
    obtain rfl := Option.some.inj (hLink'.symm.trans h₂)
    exact absurd (hPc.symm.trans hLeave) hNot
  · rw [hLink, hLink']
    exact hReports

/-- A message that is in flight alone, or in front of others, can be received whole. -/
theorem Link.Intact.exists_recv {ℓ : Link} (h : ℓ.Intact) {message : Bytes} {rest : List Bytes}
    (hMessages : ℓ.messages = ℓ.toBalancer.received ++ message :: rest)
    (hLength : message.length ≤ BUFFER_SIZE) (hSome : message ≠ []) :
    ∃ ℓ', ℓ.Recv (some message) ℓ' ∧ ℓ'.Intact := by
  have hInFlight := Pipe.inFlight_of_written (h.written.trans hMessages)
  rw [List.flatten_cons] at hInFlight
  have hPrefix : message <+: ℓ.toBalancer.inFlight := by
    rw [hInFlight]
    exact List.prefix_append _ _
  refine ⟨_, .returns message hPrefix hLength hSome,
    ⟨h.unbroken, h.sent, h.read, h.written, ?_, h.iv⟩⟩
  rw [Pipe.received_read, hMessages, List.append_cons _ message rest]
  exact List.prefix_append _ _

/-- The load balancer receives the second message and sends the third. -/
theorem SessionInv.canMove_msg2 (hInv : SessionInv aes s) {ℓ : Link} (hLink : s.current = some ℓ)
    (h : ℓ.Intact) (hPc : s.thread.pc = .awaitMsg2) {buf : Bytes}
    (hReporter : ℓ.pc = .readMsg3 buf) : s.CanMove aes encKey clock := by
  have hAt := hInv.atPc.of_current hLink
  rw [hPc] at hAt
  obtain ⟨hNone, a, hOne⟩ := hAt
  have hReporterAt := (hInv.current ℓ hLink).1.atPc
  unfold Link.AtPc at hReporterAt
  rw [hReporter] at hReporterAt
  have hMessages : ℓ.messages = ℓ.toBalancer.received ++ HR_HANDSHAKE_MSG_2 :: [] := by
    rw [hReporterAt.1.messages, hNone]
    rfl
  obtain ⟨ℓ', hRecv, hIntact⟩ := h.exists_recv hMessages (by decide) (by decide)
  have hMsg2 : LbRtThread.awaitMsg2 HR_HANDSHAKE_MSG_2 = .ok true :=
    strncmpEq_append HR_HANDSHAKE_MSG_2 _
  have hSend : ℓ'.Send acknowledgement _ :=
    .accepts acknowledgement List.prefix_rfl (Or.inl (by decide))
  have hWritten : ℓ'.toReporter.written = [hello] := by
    rw [hRecv.frame.1]
    exact h.sent_one hOne
  refine s.canMove_of_balancer (.acceptsMsg2 hPc hLink hRecv (reads_of_ok hMsg2) hSend) hLink rfl
    ⟨hIntact.unbroken, ?_, ?_, hIntact.written, hIntact.received, hIntact.iv⟩
    (hSend.keeps.pc.trans hRecv.keeps.pc) (hSend.keeps.reports.trans hRecv.keeps.reports) ?_
    (by simp [hReporter])
  · rw [Pipe.written_write, hWritten]
    exact List.prefix_rfl
  · exact hIntact.read.trans (List.prefix_append _ _)
  · show ℓ'.toBalancer.received ≠ ℓ.toBalancer.received
    rw [hRecv.received_eq]
    simp

/-- The load balancer receives the fourth message. -/
theorem SessionInv.canMove_msg4 (hInv : SessionInv aes s) {ℓ : Link} (hLink : s.current = some ℓ)
    (h : ℓ.Intact) (hPc : s.thread.pc = .awaitMsg4) (hReporter : ℓ.pc = .report) :
    s.CanMove aes encKey clock := by
  have hAt := hInv.atPc.of_current hLink
  rw [hPc] at hAt
  have hEstablished := (hInv.current ℓ hLink).1.atPc
  unfold Link.AtPc at hEstablished
  rw [hReporter] at hEstablished
  obtain ⟨sent, hMessages, -⟩ := hEstablished.messages
  have hPending : ℓ.messages = ℓ.toBalancer.received ++ ℓ.conn.ivStr :: sent := by
    rw [hMessages, hAt.1]
    rfl
  have hLength : ℓ.conn.ivStr.length ≤ BUFFER_SIZE := by
    rw [HealthReporterConnection.ivStr, List.length_append, List.length_append,
      ℓ.conn.iv.length_eq]
    decide
  obtain ⟨ℓ', hRecv, hIntact⟩ := h.exists_recv hPending hLength
    (by simp [HealthReporterConnection.ivStr])
  have hIv := h.iv (by simp [hReporter])
  refine s.canMove_of_balancer
    (.acceptsMsg4 hPc hLink hRecv (reads_of_ok (awaitMsg4_of_noZeroBefore15 hIv))) hLink rfl hIntact
    hRecv.keeps.pc hRecv.keeps.reports ?_ (by simp [hReporter])
  rw [hRecv.received_eq]
  simp

/-- The load balancer sends the first message. -/
theorem SessionInv.canMove_connect (hInv : SessionInv aes s) (hPc : s.thread.pc = .connect) :
    s.CanMove aes encKey clock := by
  have hNone := hInv.atPc.current_eq_none (Or.inr hPc)
  have hSend : (Link.new ⟨encKey, Network.onesIv⟩ false).Send hello _ :=
    .accepts hello List.prefix_rfl (Or.inl (by decide))
  refine ⟨_, .connects hPc hSend, ⟨?_, nofun, ?_⟩, ?_, ?_⟩
  · intro ℓ hLink
    obtain rfl := Option.some.inj hLink
    refine ⟨?_, ?_, List.nil_prefix, rfl, List.prefix_rfl, fun hNot => absurd rfl hNot⟩
    · rintro (hReset | hClosed)
      · cases hReset
      · cases hClosed
    · exact List.prefix_append [hello] [acknowledgement]
  · intro ℓ ℓ' hLink
    cases hNone.symm.trans hLink
  · rw [hNone]
    nofun
  · rw [hNone]
    rfl

/-- **Something is possible.** As long as neither side has given up, a step of the handshake is
possible until the load balancer is in its report loop. -/
theorem SessionInv.canMove (hInv : SessionInv aes s) (h : Going s.thread.pc s.current)
    (hNot : ¬ s.thread.pc.InReportLoop) : s.CanMove aes encKey clock := by
  have hBalancer : s.thread.pc ≠ .giveUp ∧ s.thread.pc ≠ .leave := ⟨h.balancer.1, h.balancer.2.1⟩
  -- behind `connect` there is a connection
  have hSome (hPc : s.thread.pc = .awaitMsg2 ∨ s.thread.pc = .awaitMsg4) :
      ∃ ℓ, s.current = some ℓ := by
    have hAt := hInv.atPc
    unfold Session.AtPc at hAt
    split at hAt
    · rcases hPc with hPc | hPc
      all_goals
        rw [hPc] at hAt
        simp at hAt
    · rename_i ℓ hLink
      exact ⟨ℓ, hLink⟩
  cases hPc : s.thread.pc with
  | connect => exact hInv.canMove_connect hPc
  | awaitMsg2 =>
    obtain ⟨ℓ, hLink⟩ := hSome (Or.inl hPc)
    have hIntact := h.intact ℓ hLink
    have hLinkInv := (hInv.current ℓ hLink).1
    by_cases hRead : ∃ buf, ℓ.pc = .readMsg3 buf
    · obtain ⟨buf, hReporter⟩ := hRead
      exact hInv.canMove_msg2 hLink hIntact hPc hReporter
    · refine Session.canMove_of_reporter hLink (hIntact.canMove hLinkInv ⟨h.reporter ℓ hLink, ?_,
        fun buf hReporter => hRead ⟨buf, hReporter⟩⟩) hBalancer
      -- the handshake has not been completed before the second message has been received
      intro hReporter
      have hEstablished := hLinkInv.atPc
      unfold Link.AtPc at hEstablished
      rw [hReporter] at hEstablished
      have hAt := hInv.atPc.of_current hLink
      rw [hPc] at hAt
      obtain ⟨rest, hAccepted⟩ := hEstablished.acknowledged.accepted
      cases hAt.1.symm.trans hAccepted
  | awaitMsg4 =>
    obtain ⟨ℓ, hLink⟩ := hSome (Or.inr hPc)
    have hIntact := h.intact ℓ hLink
    have hLinkInv := (hInv.current ℓ hLink).1
    by_cases hReporter : ℓ.pc = .report
    · exact hInv.canMove_msg4 hLink hIntact hPc hReporter
    · refine Session.canMove_of_reporter hLink ?_ hBalancer
      by_cases hRead : ∃ buf, ℓ.pc = .readMsg3 buf
      · obtain ⟨buf, hReporter⟩ := hRead
        have hAt := hInv.atPc.of_current hLink
        rw [hPc] at hAt
        obtain ⟨-, a, b, hTwo⟩ := hAt
        exact hIntact.canMove_msg3 hLinkInv hReporter hTwo
      · exact hIntact.canMove hLinkInv ⟨h.reporter ℓ hLink, hReporter,
          fun buf hReporter => hRead ⟨buf, hReporter⟩⟩
  | openSocket => exact absurd hPc h.balancer.2.2
  | giveUp => exact absurd hPc h.balancer.1
  | leave => exact absurd hPc h.balancer.2.1
  | receive | storeDown | storeCpu | storeMem | readClock | storeLastChecked | storeUp =>
    rw [hPc] at hNot
    exact absurd trivial hNot

end Session

/-! ## The network -/

namespace Network

variable {aes : Cipher} {config : LoadBalancerConfiguration} {n n' : Network} {i : Nat}

/-- A step on which no call on the connection of node `i` fails. The label is whether it is one of
the handshake. -/
def ReliableStep (aes : Cipher) (i : Nat) (n : Network) (moves : Bool) (n' : Network) : Prop :=
  Step aes n n' ∧ Reliable (n'.system.threads i).pc (n.current i) (n'.current i) ∧
    (moves = true ↔ Moves (n.current i) (n'.current i))

/-- A step of the network is one of the thread of node `i`, or that thread stands still. -/
theorem Step.session_or_still (hStep : Step aes n n') (i : Nat) :
    (∃ node s', SessionStep aes n.system.state.config.encKey n.system.clock (n.session i node) s' ∧
      n'.system.threads i = s'.thread ∧ n'.current i = s'.current) ∨
    n'.system.threads i = n.system.threads i ∧ n'.current i = n.current i := by
  cases hStep with
  | @session k node s' hNode hStep =>
    by_cases hk : i = k
    · subst hk
      exact Or.inl ⟨node, s', hStep, by simp [putSession], by simp [putSession]⟩
    · refine Or.inr ⟨?_, ?_⟩
      · simp [putSession, System.putThread_of_ne hk, System.putNode]
      · simp [putSession, hk]
  | other hStep hThreads => exact Or.inr ⟨congrFun hThreads i, rfl⟩

theorem ReliableStep.progress {moves : Bool} (hStep : ReliableStep aes i n moves n')
    (hInv : NetworkInv aes n) (h : Going (n.system.threads i).pc (n.current i)) :
    Going (n'.system.threads i).pc (n'.current i) ∧ ((n'.system.threads i).pc.InReportLoop ∨
      rank (n'.system.threads i).pc (n'.current i) < rank (n.system.threads i).pc (n.current i) ∨
      rank (n'.system.threads i).pc (n'.current i) = rank (n.system.threads i).pc (n.current i) ∧
        moves = false) := by
  obtain ⟨hStep, hReliable, hMoves⟩ := hStep
  have hFalse (hNot : ¬ Moves (n.current i) (n'.current i)) : moves = false := by
    rw [Bool.eq_false_iff]
    exact fun hTrue => hNot (hMoves.mp hTrue)
  rcases hStep.session_or_still i with ⟨node, s', hSession, hThread, hCurrent⟩ | ⟨hThread, hCurrent⟩
  · rw [hThread, hCurrent] at hReliable ⊢
    rw [hCurrent] at hFalse
    obtain ⟨hGoing, hRank⟩ := hSession.progress (hInv i node) h hReliable
    exact ⟨hGoing, hRank.imp_right fun hRest => hRest.imp_right fun hSame =>
      ⟨hSame.1, hFalse hSame.2⟩⟩
  · rw [hCurrent] at hFalse
    rw [hThread, hCurrent]
    exact ⟨h, Or.inr (Or.inr ⟨rfl, hFalse fun hChanged => hChanged.1 rfl⟩)⟩

theorem ReliableStep.inReportLoop {moves : Bool} (hStep : ReliableStep aes i n moves n')
    (h : Going (n.system.threads i).pc (n.current i))
    (hLoop : (n.system.threads i).pc.InReportLoop) : (n'.system.threads i).pc.InReportLoop := by
  rcases hStep.1.session_or_still i with ⟨node, s', hSession, hThread, -⟩ | ⟨hThread, -⟩
  · rw [hThread]
    exact hSession.inReportLoop hLoop h.balancer.2.1
  · rwa [hThread]

/-- What these steps keep. -/
def GoingInv (aes : Cipher) (i : Nat) (n : Network) : Prop :=
  NetworkInv aes n ∧ Going (n.system.threads i).pc (n.current i)

theorem handshake_progress (aes : Cipher) (i : Nat) :
    Runs.Progress (ReliableStep aes i) id (GoingInv aes i)
      (fun n => (n.system.threads i).pc.InReportLoop)
      fun n => rank (n.system.threads i).pc (n.current i) where
  invariant := fun _ _ _ h hStep => ⟨hStep.1.inv h.1, (hStep.progress h.1 h.2).1⟩
  stable := fun _ _ _ h hLoop hStep => hStep.inReportLoop h.2 hLoop
  silent := by
    intro n moves n' h hStep _
    exact (hStep.progress h.1 h.2).2.imp_right fun hRank => hRank.elim Nat.le_of_lt fun hSame =>
      Nat.le_of_eq hSame.1
  event := by
    rintro n moves n' h hStep (rfl : moves = true)
    refine (hStep.progress h.1 h.2).2.imp_right fun hRank => hRank.resolve_right ?_
    rintro ⟨-, hFalse⟩
    cases hFalse

/-- A reporter that has completed the handshake and not given up sends reports. -/
theorem pc_of_connected {ℓ : Link} (hInv : ℓ.Inv aes) (hState : ℓ.state = .connected)
    (hNot : ℓ.pc ≠ .leave) (hIntact : ℓ.Intact) : ℓ.pc = .report := by
  have hAt := hInv.atPc
  unfold Link.AtPc at hAt
  cases hPc : ℓ.pc with
  | backlog | readMsg1 | writeMsg2 | readMsg3 | writeMsg4 =>
    rw [hPc] at hAt
    cases hState.symm.trans hAt.1.state
  | report => rfl
  | leave => exact absurd hPc hNot
  | closed => exact absurd (Or.inr hPc) hIntact.unbroken

/-- A step of the handshake of a session is one of the network. -/
theorem reliableStep_putSession (hi : i < n.system.state.nodes.length) {s s' : Session}
    (hStep : SessionStep aes n.system.state.config.encKey n.system.clock s s')
    (hReliable : Reliable s'.thread.pc s.current s'.current) (hMoves : Moves s.current s'.current) :
    ReliableStep aes i (n.putSession i s) true (n.putSession i s') := by
  have hThread (s : Session) : (n.putSession i s).system.threads i = s.thread := by
    simp [putSession]
  have hCurrent (s : Session) : (n.putSession i s).current i = s.current :=
    Function.update_self _ _ _
  rw [ReliableStep, hThread, hCurrent, hCurrent]
  exact ⟨step_putSession hi hStep, hReliable, fun _ => hMoves, fun _ => rfl⟩

/-- **The handshake is completed.** Behind `connect`, in every run in which no call on the
connection of a node fails, neither side has given up, and either both have completed the handshake,
the load balancer being in its report loop and the reporter in its own, or fewer than eight steps of
it have been made and another one is possible. -/
theorem handshake_finishes {n₀ : Network} (h : Runs.Reachable (Init config) (Step aes) n₀)
    (hi : i < config.nodes.length) (hPc : (n₀.system.threads i).pc = .connect) {moves : List Bool}
    (hRun : Runs.Trace (ReliableStep aes i) n₀ moves n) :
    ((n.system.threads i).pc ≠ .giveUp ∧ (n.system.threads i).pc ≠ .leave ∧
        ∀ ℓ, n.current i = some ℓ → ¬ ℓ.Broken ∧ ℓ.pc ≠ .leave) ∧
      (((n.system.threads i).pc.InReportLoop ∧
          ∃ ℓ, n.current i = some ℓ ∧ ℓ.state = .connected ∧ ℓ.pc = .report) ∨
        (moves.count true < 8 ∧ ∃ n', ReliableStep aes i n true n')) := by
  have hProgress := handshake_progress aes i
  have hInv₀ := (networkInv_invariant aes config).of_reachable h
  have hNone : n₀.current i = none := (hInv₀ i default).atPc.current_eq_none (Or.inr hPc)
  have hStart : GoingInv aes i n₀ := by
    refine ⟨hInv₀, ?_, ?_, ?_⟩
    · intro ℓ hLink
      cases hNone.symm.trans hLink
    · rw [hPc]
      exact ⟨nofun, nofun, nofun⟩
    · intro ℓ hLink
      cases hNone.symm.trans hLink
  obtain ⟨hInv, hGoing⟩ : GoingInv aes i n :=
    hRun.invariant (I := fun _ n => GoingInv aes i n) hStart
      fun _ n l n' hn hStep => hProgress.invariant n l n' hn hStep
  refine ⟨⟨hGoing.balancer.1, hGoing.balancer.2.1, ?_⟩, ?_⟩
  · intro ℓ hLink
    exact ⟨(hGoing.intact ℓ hLink).unbroken, hGoing.reporter ℓ hLink⟩
  by_cases hLoop : (n.system.threads i).pc.InReportLoop
  · obtain ⟨ℓ, -, -, hLink, hEstablished, -⟩ := (hInv i default).established hLoop
    refine Or.inl ⟨hLoop, ℓ, hLink, hEstablished.state, ?_⟩
    exact pc_of_connected ((hInv i default).current ℓ hLink).1 hEstablished.state
      (hGoing.reporter ℓ hLink) (hGoing.intact ℓ hLink)
  · refine Or.inr ⟨?_, ?_⟩
    · have hCount := Runs.countP_id moves
      have hRank : rank (n₀.system.threads i).pc (n₀.current i) = 7 := by
        rw [hPc, hNone]
        rfl
      by_contra hMany
      exact hLoop (hProgress.reaches hStart hRun (by omega))
    · have hReachable : Runs.Reachable (Init config) (Step aes) n := by
        obtain ⟨n₁, hInit, hRun₁⟩ := h
        exact ⟨n₁, hInit, hRun₁.trans (hRun.refines fun _ _ _ hStep => .single hStep.1)⟩
      obtain ⟨-, hLength⟩ := (System.sameShape_invariant aes config).of_reachable
        (reachable_system hReachable)
      have hi' : i < n.system.state.nodes.length := by rwa [hLength]
      have hNode := List.getElem?_eq_getElem hi'
      obtain ⟨s', hStep, hReliable, hMoves⟩ := (hInv i _).canMove hGoing hLoop
      have hMove := reliableStep_putSession hi' hStep hReliable hMoves
      rw [putSession_session hNode] at hMove
      exact ⟨_, hMove⟩

/-- The load balancer has connected and the reporter has accepted. -/
theorem handshake_finishes_connect :
    ∃ n₀ n n' : Network, (n₀.system.threads 0).pc = .connect ∧
      Runs.Trace (ReliableStep Plusaes.aes 0) n₀ [true, true] n ∧
      (n.system.threads 0).pc = .awaitMsg2 ∧ ReliableStep Plusaes.aes 0 n true n' := by
  let accepted : Link := { firstLink with conn := ⟨keyedConfig.encKey, onesIv⟩, pc := .readMsg1 }
  let s : Session := ⟨⟨.connect, 0, none, none⟩, firstNode, none, []⟩
  have hOpened : Relation.ReflTransGen (SessionStep Plusaes.aes keyedConfig.encKey 1700000000)
      ((starting keyedConfig 1700000000).session 0 firstNode) s :=
    .single (.works (Or.inl rfl) (.socketOpens rfl))
  have hFirst : firstLink.Intact := by
    refine ⟨?_, List.prefix_append [hello] [acknowledgement], List.nil_prefix, rfl, List.prefix_rfl,
      fun hNot => absurd rfl hNot⟩
    simp [Link.Broken, firstLink, Link.new]
  have hAccepted : accepted.Intact :=
    ⟨by simp [Link.Broken, accepted, firstLink, Link.new], hFirst.sent, hFirst.read, hFirst.written,
      hFirst.received, fun _ => noZeroBefore15_onesIv⟩
  have hConnect : ReliableStep Plusaes.aes 0 ((starting keyedConfig 1700000000).putSession 0 s) true
      ((starting keyedConfig 1700000000).putSession 0 (firstSession .awaitMsg2 firstLink)) := by
    apply reliableStep_putSession (by decide)
    · exact .connects rfl (.accepts hello List.prefix_rfl (Or.inl (by decide)))
    · refine ⟨?_, by simp [firstSession], by simp [s]⟩
      rintro _ ⟨⟩
      exact hFirst
    · exact ⟨by simp [firstSession, s], rfl⟩
  have hAccept : ReliableStep Plusaes.aes 0
      ((starting keyedConfig 1700000000).putSession 0 (firstSession .awaitMsg2 firstLink)) true
      ((starting keyedConfig 1700000000).putSession 0 (firstSession .awaitMsg2 accepted)) := by
    apply reliableStep_putSession (by decide)
    · exact .reporter rfl (.accepts rfl _)
    · refine ⟨?_, by simp [firstSession], ?_⟩
      · rintro _ ⟨⟩
        exact hAccepted
      · rintro _ _ ⟨⟩ ⟨⟩ hLeave
        cases hLeave
    · refine ⟨?_, rfl⟩
      simp [firstSession, accepted, firstLink, Link.new]
  have hRun := (Runs.Trace.refl.snoc hConnect).snoc hAccept
  rcases (handshake_finishes (i := 0) (reachable_starting hOpened) (by decide) rfl hRun).2 with
    ⟨hLoop, -⟩ | ⟨-, n', hStep⟩
  · exact absurd hLoop id
  · exact ⟨_, _, n', rfl, hRun, rfl, hStep⟩

end Network

end Balancer

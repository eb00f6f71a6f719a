import Balancer.Realtime.Link
import Balancer.Realtime.System

/-!
# The load balancer and its reporters

The threads of `Realtime/System.lean` with the connections of `Realtime/Link.lean` under them: what
`lb_rt_thread` receives is what a reporter has written. A connection that the thread has closed
stays, since its reporter goes on.

* `SessionStep`: the steps of the thread of a node and of the reporters it has connected to.
* `Network.Step`: the steps of all threads.
-/

namespace Balancer

open Cpp Plusaes LbRtThread

/-- The thread of a node with the connection it holds the socket of and those it has closed. -/
structure Session where
  thread : RtThread
  node : NodeState FloatBits
  current : Option Link
  past : List Link

/-- The steps of `lb_rt_thread` and of the reporters at the other end. A step at the storing control
points, or at `socket`, is one of `RtStep`. -/
inductive SessionStep (aes : Cipher) (encKey : Bytes) (clock : Int) (s : Session) : Session → Prop
  | works {t' : RtThread} {node' : NodeState FloatBits}
      (h : s.thread.pc = .openSocket ∨ s.thread.pc.IsStoring)
      (hStep : RtStep aes encKey clock s.thread s.node t' node') :
      SessionStep aes encKey clock s { s with thread := t', node := node' }
  | connectFails (h : s.thread.pc = .connect) :
      SessionStep aes encKey clock s { s with thread := { s.thread with pc := .giveUp } }
  | connects (h : s.thread.pc = .connect) {conn : HealthReporterConnection} {reset : Bool}
      {ℓ : Link}
      (hSend : (Link.new conn reset).Send hello ℓ) :
      SessionStep aes encKey clock s
        { s with
            thread := { s.thread with pc := .awaitMsg2, connection := s.thread.connection + 1 }
            current := some ℓ }
  | noMsg2 (h : s.thread.pc = .awaitMsg2) {ℓ ℓ' : Link} (hLink : s.current = some ℓ)
      (hRecv : ℓ.Recv none ℓ') :
      SessionStep aes encKey clock s
        { s with thread := { s.thread with pc := .giveUp }, current := some ℓ' }
  | refusesMsg2 (h : s.thread.pc = .awaitMsg2) {ℓ ℓ' : Link} (hLink : s.current = some ℓ)
      {received : Bytes} (hRecv : ℓ.Recv (some received) ℓ')
      (hReply : Reads (LbRtThread.awaitMsg2 received) false) :
      SessionStep aes encKey clock s
        { s with thread := { s.thread with pc := .giveUp }, current := some ℓ' }
  | acceptsMsg2 (h : s.thread.pc = .awaitMsg2) {ℓ ℓ' ℓ'' : Link} (hLink : s.current = some ℓ)
      {received : Bytes} (hRecv : ℓ.Recv (some received) ℓ')
      (hReply : Reads (LbRtThread.awaitMsg2 received) true) (hSend : ℓ'.Send acknowledgement ℓ'') :
      SessionStep aes encKey clock s
        { s with thread := { s.thread with pc := .awaitMsg4 }, current := some ℓ'' }
  | noMsg4 (h : s.thread.pc = .awaitMsg4) {ℓ ℓ' : Link} (hLink : s.current = some ℓ)
      (hRecv : ℓ.Recv none ℓ') :
      SessionStep aes encKey clock s
        { s with thread := { s.thread with pc := .giveUp }, current := some ℓ' }
  | refusesMsg4 (h : s.thread.pc = .awaitMsg4) {ℓ ℓ' : Link} (hLink : s.current = some ℓ)
      {received : Bytes} (hRecv : ℓ.Recv (some received) ℓ')
      (hReply : Reads (LbRtThread.awaitMsg4 stringAt received) none) :
      SessionStep aes encKey clock s
        { s with thread := { s.thread with pc := .giveUp }, current := some ℓ' }
  | acceptsMsg4 (h : s.thread.pc = .awaitMsg4) {ℓ ℓ' : Link} (hLink : s.current = some ℓ)
      {received : Bytes} (hRecv : ℓ.Recv (some received) ℓ') {iv : Block}
      (hReply : Reads (LbRtThread.awaitMsg4 stringAt received) (some iv)) :
      SessionStep aes encKey clock s
        { s with
            thread := { s.thread with pc := .receive iv, handshaken := some s.thread.connection }
            current := some ℓ' }
  | givesUp (h : s.thread.pc = .giveUp) :
      SessionStep aes encKey clock s
        { thread := { s.thread with pc := .openSocket }
          node := s.node.setStatus .down
          current := none
          past := (s.current.map Link.close).toList ++ s.past }
  | disconnected {iv : Block} (h : s.thread.pc = .receive iv) {ℓ ℓ' : Link}
      (hLink : s.current = some ℓ) (hRecv : ℓ.Recv none ℓ') :
      SessionStep aes encKey clock s
        { s with thread := { s.thread with pc := .leave }, current := some ℓ' }
  | ignores {iv : Block} (h : s.thread.pc = .receive iv) {ℓ ℓ' : Link} (hLink : s.current = some ℓ)
      {received : Bytes} (hRecv : ℓ.Recv (some received) ℓ')
      (hOutcome : Reads (receiveReport aes encKey iv received) .ignored) :
      SessionStep aes encKey clock s { s with current := some ℓ' }
  | rejects {iv : Block} (h : s.thread.pc = .receive iv) {ℓ ℓ' : Link} (hLink : s.current = some ℓ)
      {received : Bytes} (hRecv : ℓ.Recv (some received) ℓ')
      (hOutcome : Reads (receiveReport aes encKey iv received) .rejected) :
      SessionStep aes encKey clock s
        { s with thread := { s.thread with pc := .storeDown iv }, current := some ℓ' }
  | applies {iv : Block} (h : s.thread.pc = .receive iv) {ℓ ℓ' : Link} (hLink : s.current = some ℓ)
      {received : Bytes} (hRecv : ℓ.Recv (some received) ℓ') {hr : HealthReport}
      (hOutcome : Reads (receiveReport aes encKey iv received) (.applied hr)) :
      SessionStep aes encKey clock s
        { s with thread := { s.thread with pc := .storeCpu iv hr }, current := some ℓ' }
  | leaves (h : s.thread.pc = .leave) :
      SessionStep aes encKey clock s
        { thread := { s.thread with pc := .openSocket }
          node := s.node.setStatus .down
          current := none
          past := (s.current.map Link.close).toList ++ s.past }
  | reporter {ℓ ℓ' : Link} (hLink : s.current = some ℓ) (hStep : ReporterStep aes ℓ ℓ') :
      SessionStep aes encKey clock s { s with current := some ℓ' }
  | oldReporter {k : Nat} {ℓ ℓ' : Link} (hLink : s.past[k]? = some ℓ)
      (hStep : ReporterStep aes ℓ ℓ') :
      SessionStep aes encKey clock s { s with past := s.past.set k ℓ' }

section Session

variable {aes : Cipher} {encKey : Bytes} {clock : Int} {s s' : Session}

/-- **Refinement.** Without the connections a step of a session is a step of the thread, or none. -/
theorem SessionStep.rtStep (hStep : SessionStep aes encKey clock s s') :
    RtStep aes encKey clock s.thread s.node s'.thread s'.node ∨
      s'.thread = s.thread ∧ s'.node = s.node := by
  cases hStep with
  | works _ hStep => exact Or.inl hStep
  | connectFails h => exact Or.inl (.connectFails h)
  | connects h _ => exact Or.inl (.connects h)
  | noMsg2 h _ _ => exact Or.inl (.noMsg2 h)
  | refusesMsg2 h _ _ hReply => exact Or.inl (.refusesMsg2 h hReply)
  | acceptsMsg2 h _ _ hReply _ => exact Or.inl (.acceptsMsg2 h hReply)
  | noMsg4 h _ _ => exact Or.inl (.noMsg4 h)
  | refusesMsg4 h _ _ hReply => exact Or.inl (.refusesMsg4 h hReply)
  | acceptsMsg4 h _ _ hReply => exact Or.inl (.acceptsMsg4 h hReply)
  | givesUp h => exact Or.inl (.givesUp h)
  | disconnected h _ _ => exact Or.inl (.disconnected h)
  | ignores h _ _ hOutcome => exact Or.inl (.ignores h hOutcome)
  | rejects h _ _ hOutcome => exact Or.inl (.rejects h hOutcome)
  | applies h _ _ hOutcome => exact Or.inl (.applies h hOutcome)
  | leaves h => exact Or.inl (.leaves h)
  | reporter _ _ => exact Or.inr ⟨rfl, rfl⟩
  | oldReporter _ _ => exact Or.inr ⟨rfl, rfl⟩

/-! ## The invariant of a session -/

/-- What the load balancer has done on a connection, at a control point. -/
def Link.BalancerAt (ℓ : Link) : RtPc → Prop
  | .openSocket | .connect => False
  | .awaitMsg2 => ℓ.toBalancer.received = [] ∧ ∃ a, ℓ.toReporter.written = [a]
  | .awaitMsg4 =>
    ℓ.toBalancer.received = [HR_HANDSHAKE_MSG_2] ∧ ∃ a b, ℓ.toReporter.written = [a, b]
  | .giveUp => True
  | _ =>
    ∃ msg4 rest, ℓ.toBalancer.received = HR_HANDSHAKE_MSG_2 :: msg4 :: rest ∧
      HR_HANDSHAKE_MSG_4 <+: msg4

/-- What the thread has done on its connection, and where it has none. -/
def Session.AtPc (s : Session) : Prop :=
  match s.current with
  | none => s.thread.pc = .openSocket ∨ s.thread.pc = .connect ∨ s.thread.pc = .giveUp
  | some ℓ => ℓ.BalancerAt s.thread.pc

/-- The connection has received a message behind the handshake. -/
def Session.HasReceived (s : Session) : Prop :=
  ∀ ℓ, s.current = some ℓ → 3 ≤ ℓ.toBalancer.received.length

structure SessionInv (aes : Cipher) (s : Session) : Prop where
  current : ∀ ℓ, s.current = some ℓ → ℓ.Inv aes ∧ ℓ.balancerOpen = true
  past : ∀ ℓ ∈ s.past, ℓ.Inv aes ∧ ℓ.balancerOpen = false
  atPc : s.AtPc
  storing : s.thread.pc.IsStoring → s.HasReceived
  stamp : ∀ c now, s.thread.stamp = some (c, now) →
    c ≤ s.thread.connection ∧ (c = s.thread.connection → s.HasReceived)

theorem Link.balancerAt_of_inReportLoop {ℓ : Link} {pc : RtPc} (h : pc.InReportLoop) :
    ℓ.BalancerAt pc ↔ ∃ msg4 rest,
      ℓ.toBalancer.received = HR_HANDSHAKE_MSG_2 :: msg4 :: rest ∧ HR_HANDSHAKE_MSG_4 <+: msg4 := by
  cases pc <;> first | exact Iff.rfl | exact absurd h id

theorem Link.BalancerAt.of_eq {ℓ ℓ' : Link} {pc : RtPc} (h : ℓ.BalancerAt pc)
    (hReceived : ℓ'.toBalancer.received = ℓ.toBalancer.received)
    (hWritten : ℓ'.toReporter.written = ℓ.toReporter.written) : ℓ'.BalancerAt pc := by
  unfold BalancerAt at h ⊢
  rwa [hReceived, hWritten]

theorem Session.AtPc.of_current {ℓ : Link} (h : s.AtPc) (hLink : s.current = some ℓ) :
    ℓ.BalancerAt s.thread.pc := by
  unfold Session.AtPc at h
  rwa [hLink] at h

/-- A thread in the report loop has a connection. -/
theorem Session.AtPc.exists_current (h : s.AtPc) (hLoop : s.thread.pc.InReportLoop) :
    ∃ ℓ, s.current = some ℓ := by
  unfold Session.AtPc at h
  split at h
  · rcases h with hPc | hPc | hPc
    all_goals
      rw [hPc] at hLoop
      exact absurd hLoop id
  · rename_i ℓ hLink
    exact ⟨ℓ, hLink⟩

/-- Before `connect` there is no connection. -/
theorem Session.AtPc.current_eq_none (h : s.AtPc)
    (hPc : s.thread.pc = .openSocket ∨ s.thread.pc = .connect) : s.current = none := by
  unfold Session.AtPc at h
  split at h
  · rename_i hNone
    exact hNone
  · rcases hPc with hPc | hPc
    all_goals
      rw [hPc] at h
      exact absurd h id

/-- A thread that stores something is in the report loop. -/
theorem RtPc.IsStoring.inReportLoop {pc : RtPc} (h : pc.IsStoring) : pc.InReportLoop := by
  cases pc <;> first | exact trivial | exact absurd h id

/-- A thread in the report loop has received something on a connection whose reporter has completed
the handshake. -/
theorem SessionInv.established (h : SessionInv aes s) (hLoop : s.thread.pc.InReportLoop) :
    ∃ ℓ msg4 rest, s.current = some ℓ ∧ ℓ.Established aes ∧
      ℓ.toBalancer.received = HR_HANDSHAKE_MSG_2 :: msg4 :: rest ∧ HR_HANDSHAKE_MSG_4 <+: msg4 := by
  obtain ⟨ℓ, hLink⟩ := h.atPc.exists_current hLoop
  obtain ⟨msg4, rest, hReceived, hMsg4⟩ :=
    (Link.balancerAt_of_inReportLoop hLoop).mp (h.atPc.of_current hLink)
  refine ⟨ℓ, msg4, rest, hLink, (h.current ℓ hLink).1.established hReceived ?_, hReceived, hMsg4⟩
  rintro rfl
  exact absurd (List.prefix_nil.mp hMsg4) (by decide)

/-- The connection moves on, and the thread with it. -/
theorem SessionInv.replace (h : SessionInv aes s) {ℓ ℓ' : Link} {t' : RtThread}
    (hLink : s.current = some ℓ) (hInv : ℓ'.Inv aes) (hOpen : ℓ'.balancerOpen = true)
    (hReceived : ℓ.toBalancer.received <+: ℓ'.toBalancer.received)
    (hConnection : t'.connection = s.thread.connection) (hStamp : t'.stamp = s.thread.stamp)
    (hAt : ℓ'.BalancerAt t'.pc) (hStoring : t'.pc.IsStoring → 3 ≤ ℓ'.toBalancer.received.length) :
    SessionInv aes { s with thread := t', current := some ℓ' } where
  current := by
    intro ℓ₁ h₁
    obtain rfl := Option.some.inj h₁
    exact ⟨hInv, hOpen⟩
  past := h.past
  atPc := hAt
  storing := by
    intro hPc ℓ₁ h₁
    obtain rfl := Option.some.inj h₁
    exact hStoring hPc
  stamp := by
    intro c now hNow
    obtain ⟨hLe, hSame⟩ := h.stamp c now (hStamp.symm.trans hNow)
    refine ⟨by rwa [hConnection], ?_⟩
    intro hc ℓ₁ h₁
    obtain rfl := Option.some.inj h₁
    exact (hSame (hc.trans hConnection) ℓ hLink).trans hReceived.length_le

/-- The thread closes its connection. -/
theorem SessionInv.closes (h : SessionInv aes s) {node' : NodeState FloatBits} :
    SessionInv aes
      { thread := { s.thread with pc := .openSocket }
        node := node'
        current := none
        past := (s.current.map Link.close).toList ++ s.past } where
  current := by
    intro ℓ hLink
    cases hLink
  past := by
    intro ℓ hℓ
    rcases List.mem_append.mp hℓ with hClosed | hPast
    · obtain ⟨ℓ₀, hLink, rfl⟩ := Option.map_eq_some_iff.mp (Option.mem_toList.mp hClosed)
      exact ⟨(h.current ℓ₀ hLink).1.close, rfl⟩
    · exact h.past ℓ hPast
  atPc := Or.inl rfl
  storing := fun hPc => absurd hPc id
  stamp := by
    intro c now hNow
    refine ⟨(h.stamp c now hNow).1, ?_⟩
    intro _ ℓ hLink
    cases hLink

/-- The literals of the second message, within what a reporter writes before it is answered. -/
theorem SessionInv.received_msg2 (h : SessionInv aes s) {ℓ ℓ' : Link} {received : Bytes}
    (hLink : s.current = some ℓ) (hNone : ℓ.toBalancer.received = [])
    (hRecv : ℓ.Recv (some received) ℓ')
    (hReply : Reads (LbRtThread.awaitMsg2 received) true) :
    ℓ'.toBalancer.received = [HR_HANDSHAKE_MSG_2] := by
  have hInv := (h.current ℓ hLink).1
  cases hRecv with
  | returns chunk hChunk hLength hSome =>
    have hBuffer : HR_HANDSHAKE_MSG_2.length ≤ (recvInto zeroBuffer received).length := by
      rw [length_recvInto (by rwa [length_zeroBuffer]), length_zeroBuffer]
      decide
    have hPrefix : HR_HANDSHAKE_MSG_2 <+: received := by
      rw [LbRtThread.awaitMsg2, strncmpEq_of_length hBuffer] at hReply
      have hCompare := of_decide_eq_true (eq_of_reads hReply).symm
      rwa [prefix_recvInto (by decide)] at hCompare
    -- the reporter has not been answered, so it has written no more than that
    have hShort : ℓ.toBalancer.written.flatten <+: HR_HANDSHAKE_MSG_2 := by
      rcases hInv.handshaking_or_established with ⟨-, hShort⟩ | hEstablished
      · exact hShort
      · obtain ⟨rest, hAccepted⟩ := hEstablished.acknowledged.accepted
        rw [hNone] at hAccepted
        cases hAccepted
    have hInFlight := ℓ.toBalancer.received_append_inFlight
    rw [hNone, List.flatten_nil, List.nil_append] at hInFlight
    have hEq := hPrefix.eq_of_length_le ((hInFlight ▸ hChunk).trans hShort).length_le
    rw [Pipe.received_read, hNone, hEq]
    rfl

/-- What is accepted as the fourth message starts like it. -/
theorem prefix_of_awaitMsg4 {received : Bytes} {iv : Block} (h : received.length ≤ BUFFER_SIZE)
    (hReply : Reads (LbRtThread.awaitMsg4 stringAt received) (some iv)) :
    HR_HANDSHAKE_MSG_4 <+: received := by
  by_contra hNot
  rw [awaitMsg4_of_other_start stringAt h hNot] at hReply
  cases eq_of_reads hReply

/-- The storing steps stay in the report loop of the connection. -/
theorem RtStep.of_isStoring {t t' : RtThread} {node node' : NodeState FloatBits}
    (hStep : RtStep aes encKey clock t node t' node') (h : t.pc.IsStoring) :
    t'.pc.InReportLoop ∧ t'.connection = t.connection ∧
      ∀ c now, t'.stamp = some (c, now) → t.stamp = some (c, now) ∨ c = t.connection := by
  cases hStep with
  | storesDown hPc | storesCpu hPc | storesMem hPc | readsClock hPc | storesUp hPc =>
    exact ⟨trivial, rfl, fun c now hNow => Or.inl hNow⟩
  | storesLastChecked hPc =>
    refine ⟨trivial, rfl, ?_⟩
    intro c now hNow
    exact Or.inr (Prod.mk.inj (Option.some.inj hNow)).1.symm
  | socketFails hPc | socketOpens hPc | connectFails hPc | connects hPc | noMsg2 hPc | noMsg4 hPc
  | givesUp hPc | disconnected hPc | leaves hPc =>
    rw [hPc] at h
    exact absurd h id
  | refusesMsg2 hPc _ | acceptsMsg2 hPc _ | refusesMsg4 hPc _ | acceptsMsg4 hPc _ | ignores hPc _
  | rejects hPc _ | applies hPc _ =>
    rw [hPc] at h
    exact absurd h id

/-- Steps without a connection. -/
theorem SessionInv.offline (h : SessionInv aes s) (hNone : s.current = none) {t' : RtThread}
    {node' : NodeState FloatBits} (hConnection : t'.connection = s.thread.connection)
    (hStamp : t'.stamp = s.thread.stamp)
    (hPc : t'.pc = .openSocket ∨ t'.pc = .connect ∨ t'.pc = .giveUp) :
    SessionInv aes { s with thread := t', node := node' } where
  current := h.current
  past := h.past
  atPc := by
    unfold Session.AtPc
    rw [hNone]
    exact hPc
  storing := by
    intro _ ℓ hLink
    cases hNone.symm.trans hLink
  stamp := by
    intro c now hNow
    rw [hConnection]
    exact h.stamp c now (hStamp.symm.trans hNow)

/-- A step that touches no socket but opens one. -/
theorem SessionInv.works (h : SessionInv aes s) {t' : RtThread} {node' : NodeState FloatBits}
    (hPc : s.thread.pc = .openSocket ∨ s.thread.pc.IsStoring)
    (hStep : RtStep aes encKey clock s.thread s.node t' node') :
    SessionInv aes { s with thread := t', node := node' } := by
  rcases hPc with hPc | hStoring
  · have hNone := h.atPc.current_eq_none (Or.inl hPc)
    cases hStep with
    | socketFails _ => exact h.offline hNone rfl rfl (Or.inr (Or.inr rfl))
    | socketOpens _ => exact h.offline hNone rfl rfl (Or.inr (Or.inl rfl))
    | connectFails hOther | connects hOther | noMsg2 hOther | noMsg4 hOther | givesUp hOther
    | disconnected hOther | leaves hOther | storesDown hOther | storesCpu hOther
    | storesMem hOther | readsClock hOther | storesLastChecked hOther | storesUp hOther =>
      cases hPc.symm.trans hOther
    | refusesMsg2 hOther _ | acceptsMsg2 hOther _ | refusesMsg4 hOther _ | acceptsMsg4 hOther _
    | ignores hOther _ | rejects hOther _ | applies hOther _ =>
      cases hPc.symm.trans hOther
  · obtain ⟨hLoop, hConnection, hStamp⟩ := hStep.of_isStoring hStoring
    have hReceived := h.storing hStoring
    obtain ⟨ℓ, hLink⟩ := h.atPc.exists_current hStoring.inReportLoop
    have hAt := h.atPc.of_current hLink
    rw [Link.balancerAt_of_inReportLoop hStoring.inReportLoop,
      ← Link.balancerAt_of_inReportLoop hLoop] at hAt
    refine ⟨h.current, h.past, ?_, fun _ => hReceived, ?_⟩
    · unfold Session.AtPc
      rwa [hLink]
    · intro c now hNow
      refine ⟨?_, fun _ => hReceived⟩
      rw [hConnection]
      rcases hStamp c now hNow with hOld | rfl
      · exact (h.stamp c now hOld).1
      · exact Nat.le_refl _

/-- A call of `recv` in the report loop. -/
theorem SessionInv.receives (h : SessionInv aes s) {ℓ ℓ' : Link} {received : Option Bytes}
    {t' : RtThread} {iv : Block} (hPc : s.thread.pc = .receive iv) (hLink : s.current = some ℓ)
    (hRecv : ℓ.Recv received ℓ') (hLoop : t'.pc.InReportLoop)
    (hConnection : t'.connection = s.thread.connection) (hStamp : t'.stamp = s.thread.stamp)
    (hStoring : t'.pc.IsStoring → received ≠ none) :
    SessionInv aes { s with thread := t', current := some ℓ' } := by
  have hBefore : s.thread.pc.InReportLoop := by
    rw [hPc]
    trivial
  obtain ⟨msg4, rest, hReceived, hMsg4⟩ :=
    (Link.balancerAt_of_inReportLoop hBefore).mp (h.atPc.of_current hLink)
  obtain ⟨hInv, hOpen⟩ := h.current ℓ hLink
  have hPrefix := hRecv.keeps.received
  refine h.replace hLink (hRecv.inv hInv) (hRecv.frame.2.2.trans hOpen) hPrefix hConnection hStamp
    ((Link.balancerAt_of_inReportLoop hLoop).mpr ?_) ?_
  · obtain ⟨more, hMore⟩ := hPrefix
    rw [hReceived] at hMore
    exact ⟨msg4, rest ++ more, hMore.symm, hMsg4⟩
  · intro hStores
    cases hRecv with
    | fails => exact absurd rfl (hStoring hStores)
    | returns chunk _ _ _ =>
      rw [Pipe.received_read, hReceived]
      simp

/-- A reporter moves on its connection: the load balancer sees nothing of it. -/
theorem SessionInv.reporter (h : SessionInv aes s) {ℓ ℓ' : Link} (hLink : s.current = some ℓ)
    (hStep : ReporterStep aes ℓ ℓ') : SessionInv aes { s with current := some ℓ' } := by
  obtain ⟨hWritten, hReceived, -, hOpen⟩ := hStep.frame
  obtain ⟨hInv, hIsOpen⟩ := h.current ℓ hLink
  refine h.replace hLink (hStep.inv hInv) (hOpen.trans hIsOpen) ?_ rfl rfl ?_ ?_
  · rw [hReceived]
  · exact (h.atPc.of_current hLink).of_eq hReceived hWritten
  · intro hStoring
    rw [hReceived]
    exact h.storing hStoring ℓ hLink

/-- **One step of a session.** -/
theorem SessionStep.inv (hStep : SessionStep aes encKey clock s s') (h : SessionInv aes s) :
    SessionInv aes s' := by
  cases hStep with
  | works hPc hStep => exact h.works hPc hStep
  | connectFails hPc =>
    exact h.offline (h.atPc.current_eq_none (Or.inr hPc)) rfl rfl (Or.inr (Or.inr rfl))
  | connects hPc hSend =>
    refine ⟨?_, h.past, ?_, nofun, ?_⟩
    · intro ℓ₁ h₁
      obtain rfl := Option.some.inj h₁
      refine ⟨hSend.inv_new, ?_⟩
      cases hSend
      rfl
    · cases hSend
      exact ⟨rfl, _, rfl⟩
    · intro c now hNow
      have hLe := (h.stamp c now hNow).1
      refine ⟨Nat.le_succ_of_le hLe, ?_⟩
      rintro rfl
      exact absurd hLe (Nat.not_succ_le_self _)
  | noMsg2 hPc hLink hRecv | refusesMsg2 hPc hLink hRecv hReply | noMsg4 hPc hLink hRecv
  | refusesMsg4 hPc hLink hRecv hReply =>
    obtain ⟨hInv, hOpen⟩ := h.current _ hLink
    exact h.replace hLink (hRecv.inv hInv) (hRecv.frame.2.2.trans hOpen)
      hRecv.keeps.received rfl rfl trivial nofun
  | acceptsMsg2 hPc hLink hRecv hReply hSend =>
    have hAt := h.atPc.of_current hLink
    rw [hPc] at hAt
    obtain ⟨hNone, a, hWritten⟩ := hAt
    obtain ⟨hInv, hOpen⟩ := h.current _ hLink
    have hReceived := h.received_msg2 hLink hNone hRecv hReply
    obtain ⟨hToReporter, -, hSame⟩ := hRecv.frame
    rw [← hToReporter] at hWritten
    have hInv' := hSend.inv_acknowledgement (hRecv.inv hInv) hWritten ⟨[], hReceived⟩
    cases hSend with
    | accepts b hPrefix hSome =>
      refine h.replace hLink hInv' (hSame.trans hOpen) hRecv.keeps.received rfl rfl ?_ nofun
      refine ⟨hReceived, a, b, ?_⟩
      rw [Pipe.written_write, hWritten]
      rfl
  | acceptsMsg4 hPc hLink hRecv hReply =>
    have hAt := h.atPc.of_current hLink
    rw [hPc] at hAt
    obtain ⟨hReceived, -⟩ := hAt
    obtain ⟨hInv, hOpen⟩ := h.current _ hLink
    refine h.replace hLink (hRecv.inv hInv) (hRecv.frame.2.2.trans hOpen) hRecv.keeps.received rfl
      rfl ?_ nofun
    cases hRecv with
    | returns _ _ hLength _ =>
      refine ⟨_, [], ?_, prefix_of_awaitMsg4 hLength hReply⟩
      rw [Pipe.received_read, hReceived]
      rfl
  | givesUp hPc | leaves hPc => exact h.closes
  | disconnected hPc hLink hRecv =>
    exact h.receives hPc hLink hRecv trivial rfl rfl nofun
  | ignores hPc hLink hRecv _ =>
    refine h.receives hPc hLink hRecv ?_ rfl rfl nofun
    rw [hPc]
    trivial
  | rejects hPc hLink hRecv _ | applies hPc hLink hRecv _ =>
    exact h.receives hPc hLink hRecv trivial rfl rfl nofun
  | reporter hLink hStep => exact h.reporter hLink hStep
  | @oldReporter k ℓ ℓ' hLink hStep =>
    refine ⟨h.current, ?_, h.atPc, h.storing, h.stamp⟩
    intro ℓ₁ h₁
    rcases List.mem_or_eq_of_mem_set h₁ with hOld | rfl
    · exact h.past ℓ₁ hOld
    · obtain ⟨hInv, hClosed⟩ := h.past ℓ (List.mem_of_getElem? hLink)
      exact ⟨hStep.inv hInv, hStep.frame.2.2.2.trans hClosed⟩

end Session

/-! ## All threads -/

/-- The system with the connections of the thread of every node. -/
structure Network where
  system : System
  current : Nat → Option Link
  past : Nat → List Link

namespace Network

variable {aes : Cipher} {config : LoadBalancerConfiguration} {n n' : Network}

/-- The thread of node `i`, `node` being the node. -/
def session (i : Nat) (node : NodeState FloatBits) (n : Network) : Session where
  thread := n.system.threads i
  node := node
  current := n.current i
  past := n.past i

def putSession (i : Nat) (s : Session) (n : Network) : Network where
  system := (n.system.putNode i s.node).putThread i s.thread
  current := Function.update n.current i s.current
  past := Function.update n.past i s.past

/-- `start` under `RESOURCE`, before any thread has made a step. -/
structure Init (config : LoadBalancerConfiguration) (n : Network) : Prop where
  system : System.Init config n.system
  current : ∀ i, n.current i = none
  past : ∀ i, n.past i = []

/-- A step of the thread of a node or of one of its reporters, or a step in which the threads of the
nodes stand still. -/
inductive Step (aes : Cipher) (n : Network) : Network → Prop
  | session {i : Nat} {node : NodeState FloatBits} {s' : Session}
      (hNode : n.system.state.nodes[i]? = some node)
      (hStep : SessionStep aes n.system.state.config.encKey n.system.clock (n.session i node) s') :
      Step aes n (n.putSession i s')
  | other {system' : System} (hStep : System.Step aes n.system system')
      (hThreads : system'.threads = n.system.threads) :
      Step aes n { n with system := system' }

/-- **Refinement.** Without the connections, a step is one of the system, or none. -/
theorem Step.system (hStep : Step aes n n') :
    Relation.ReflTransGen (System.Step aes) n.system n'.system := by
  cases hStep with
  | @session i node s' hNode hStep =>
    rcases hStep.rtStep with hThread | ⟨hThread, hSame⟩
    · exact .single (.rtThread hNode hThread)
    · have hSystem : (n.putSession i s').system = n.system := by
        have hPut : (n.system.putNode i node).putThread i (n.system.threads i) = n.system := by
          rw [System.putNode_self hNode]
          simp [System.putThread]
        rw [putSession, hThread, hSame]
        exact hPut
      rw [hSystem]
  | other hStep _ => exact .single hStep

/-- A reachable network has a reachable system. -/
theorem reachable_system (h : Runs.Reachable (Init config) (Step aes) n) :
    Runs.Reachable (System.Init config) (System.Step aes) n.system := by
  obtain ⟨n₀, hInit, hRun⟩ := h
  refine ⟨n₀.system, hInit.system, ?_⟩
  induction hRun with
  | refl => exact .refl
  | tail _ hStep ih => exact ih.trans hStep.system

@[simp] theorem session_putSession (i : Nat) (s : Session) (n : Network)
    (node : NodeState FloatBits) : (n.putSession i s).session i node = { s with node := node } := by
  simp [session, putSession]

theorem session_putSession_of_ne {i k : Nat} (h : k ≠ i) (s : Session) (n : Network)
    (node : NodeState FloatBits) : (n.putSession i s).session k node = n.session k node := by
  simp [session, putSession, System.putThread_of_ne h, System.putNode, h]

/-- Every thread is at its control point with its connection. -/
def NetworkInv (aes : Cipher) (n : Network) : Prop :=
  ∀ i node, SessionInv aes (n.session i node)

theorem Init.inv (h : Init config n) : NetworkInv aes n := by
  intro i node
  have hThread := h.system.threads i
  have hNone := h.current i
  refine ⟨?_, ?_, ?_, ?_, ?_⟩
  · intro ℓ hLink
    cases hNone.symm.trans hLink
  · intro ℓ hℓ
    rw [session, h.past i] at hℓ
    cases hℓ
  · simp [Session.AtPc, session, hNone, hThread, RtThread.start]
  · intro hStoring
    rw [session, hThread] at hStoring
    exact absurd hStoring id
  · intro c now hNow
    rw [session, hThread] at hNow
    cases hNow

theorem Step.inv (hStep : Step aes n n') (h : NetworkInv aes n) : NetworkInv aes n' := by
  cases hStep with
  | @session i node s' hNode hStep =>
    intro k other
    by_cases hk : k = i
    · subst hk
      have hInv := hStep.inv (h k node)
      rw [session_putSession]
      exact ⟨hInv.current, hInv.past, hInv.atPc, hInv.storing, hInv.stamp⟩
    · rw [session_putSession_of_ne hk]
      exact h k other
  | @other system' _ hThreads =>
    intro i node
    have hSame : ({ n with system := system' } : Network).session i node = n.session i node := by
      rw [Network.session, Network.session, hThreads]
    rw [hSame]
    exact h i node

theorem networkInv_invariant (aes : Cipher) (config : LoadBalancerConfiguration) :
    Runs.Invariant (Init config) (Step aes) (NetworkInv aes) where
  initial := fun _ h => h.inv
  preserved := fun _ _ h hStep => hStep.inv h

end Network

end Balancer

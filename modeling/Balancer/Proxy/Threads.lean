import Balancer.Proxy.Lifecycle

/-!
# What a connection forwards

The runs of `Proxy/Lifecycle.lean`, seen from one `forward_traffic` thread. Its state is that of the
loop on the results of its own calls, whatever the listener and the other threads do in between.

* `callsOf`: the calls of one thread in a run.
* `Replays`: every thread is where its own calls have brought it.
* `forwards`: what the thread has received and sent on.
-/

namespace Balancer

open Cpp Runs

/-- A call of a forwarding thread that has returned. -/
inductive Call
  | recv (result : Option Bytes)
  | send (result : Option Nat)
  deriving DecidableEq, Repr

/-- The two calls of an iteration. -/
def Iteration.calls (it : Iteration) : List Call := [.recv (some it.buffer), .send it.sent]

/-- What an iteration sends on. -/
def Iteration.accepted (it : Iteration) : Bytes := it.buffer.take (it.sent.getD 0)

/-- The thread behind some iterations, and behind a last `recv` if it has returned. -/
def ForwardThread.behind (iterations : List Iteration) (last : Option (Option Bytes)) :
    ForwardThread where
  pc :=
    match last with
    | none => .receiving
    | some none => .returned
    | some (some buffer) => .sending buffer
  received := iterations.flatMap Iteration.buffer ++ last.join.getD []
  accepted := iterations.flatMap Iteration.accepted

/-- The calls that bring a thread there. -/
def callsBehind (iterations : List Iteration) (last : Option (Option Bytes)) : List Call :=
  iterations.flatMap Iteration.calls ++ last.toList.map Call.recv

/-! ## One loop -/

theorem accepted_sublist (iterations : List Iteration) :
    (iterations.flatMap Iteration.accepted).Sublist (iterations.flatMap Iteration.buffer) := by
  induction iterations with
  | nil => exact List.Sublist.refl _
  | cons it rest ih =>
    rw [List.flatMap_cons, List.flatMap_cons]
    exact (List.take_sublist _ _).append ih

theorem accepted_of_failing {iterations : List Iteration}
    (h : ∀ it ∈ iterations, it.sent = none) : iterations.flatMap Iteration.accepted = [] := by
  rw [List.flatMap_eq_nil_iff]
  intro it hMem
  rw [Iteration.accepted, h it hMem]
  exact List.take_zero

/-- Without a byte behind a gap the loop sends on a prefix. -/
theorem accepted_of_nothingAfterGap {iterations : List Iteration}
    (h : NothingAfterGap (iterations.map Iteration.transfer)) :
    iterations.flatMap Iteration.accepted <+: iterations.flatMap Iteration.buffer := by
  induction iterations with
  | nil => exact List.prefix_rfl
  | cons it rest ih =>
    rw [List.map_cons, NothingAfterGap] at h
    rw [List.flatMap_cons, List.flatMap_cons]
    split at h
    · rename_i hAll
      have hWhole : it.accepted = it.buffer := by
        simp only [Iteration.transfer] at hAll
        rw [Iteration.accepted, hAll]
        exact List.take_length
      rw [hWhole]
      exact (List.prefix_append_right_inj _).mpr (ih h)
    · have hNone : rest.flatMap Iteration.accepted = [] := by
        apply accepted_of_failing
        intro later hLater
        exact h later.transfer (List.mem_map_of_mem hLater)
      rw [hNone, List.append_nil]
      exact (List.take_prefix _ _).trans (List.prefix_append _ _)

namespace ForwardThread

theorem recv_behind (iterations : List Iteration) (result : Option Bytes) :
    (behind iterations none).recv result = behind iterations (some result) := by
  cases result with
  | none => rfl
  | some buffer => simp [recv, behind]

theorem send_behind (iterations : List Iteration) (buffer : Bytes) (result : Option Nat) :
    (behind iterations (some (some buffer))).send buffer result =
      behind (iterations ++ [⟨buffer, result⟩]) none := by
  simp [send, behind, Iteration.accepted]

/-- A thread before `recv` has completed its iterations. -/
theorem behind_receiving {iterations : List Iteration} {last : Option (Option Bytes)}
    (h : (behind iterations last).pc = .receiving) : last = none := by
  rcases last with _ | _ | buffer
  · rfl
  · cases h
  · cases h

/-- A thread before `send` has received the buffer. -/
theorem behind_sending {iterations : List Iteration} {last : Option (Option Bytes)} {buffer : Bytes}
    (h : (behind iterations last).pc = .sending buffer) : last = some (some buffer) := by
  rcases last with _ | _ | other
  · cases h
  · cases h
  · obtain rfl := ForwardPc.sending.inj h
    rfl

end ForwardThread

/-! ## The calls of one thread in a run -/

/-- The call of thread `d` of connection `i`, if the event is one. -/
def Event.call (i : Nat) (d : Direction) : Event → Option Call
  | .recv j e result => if i = j ∧ d = e then some (.recv result) else none
  | .send j e result => if i = j ∧ d = e then some (.send result) else none
  | _ => none

def callsOf (i : Nat) (d : Direction) (labels : List Event) : List Call :=
  labels.filterMap (Event.call i d)

theorem callsOf_concat (i : Nat) (d : Direction) (labels : List Event) (l : Event) :
    callsOf i d (labels ++ [l]) = callsOf i d labels ++ (l.call i d).toList := by
  rw [callsOf, List.filterMap_append]
  cases h : l.call i d <;> simp [callsOf, h]

namespace Proxy

/-- The thread `d` of connection `i`. -/
def threadAt (s : Proxy) (i : Nat) (d : Direction) : Option ForwardThread :=
  s.connections[i]?.map fun conn => conn.thread d

theorem threadAt_putThread {s : Proxy} {i : Nat} {conn : Connection}
    (hConn : s.connections[i]? = some conn) (d : Direction) (t : ForwardThread) (j : Nat)
    (e : Direction) :
    (s.putThread i d t).threadAt j e = if j = i ∧ e = d then some t else s.threadAt j e := by
  simp only [threadAt, putThread, List.getElem?_modify]
  by_cases hj : i = j
  · subst hj
    by_cases he : d = e
    · subst he
      simp [hConn, Connection.putThread]
    · simp [hConn, Connection.putThread, Ne.symm he]
  · simp [hj, Ne.symm hj]

/-- Every thread is where its own calls have brought it. One that does not exist has made none. -/
def Replays (labels : List Event) (s : Proxy) : Prop :=
  ∀ i d,
    match s.threadAt i d with
    | none => callsOf i d labels = []
    | some t => ∃ iterations last, callsOf i d labels = callsBehind iterations last ∧
        t = .behind iterations last

/-- An event of another thread, or of the listener. -/
theorem Replays.other {labels : List Event} {s s' : Proxy} {l : Event} {i : Nat} {d : Direction}
    (h : Replays labels s) (hThread : s'.threadAt i d = s.threadAt i d)
    (hCall : l.call i d = none) :
    match s'.threadAt i d with
    | none => callsOf i d (labels ++ [l]) = []
    | some t => ∃ iterations last, callsOf i d (labels ++ [l]) = callsBehind iterations last ∧
        t = .behind iterations last := by
  rw [hThread, callsOf_concat, hCall, Option.toList_none, List.append_nil]
  exact h i d

/-- A call of thread `d` of connection `i`. -/
theorem Replays.call {labels : List Event} {s : Proxy} {l : Event} {i : Nat} {d : Direction}
    (h : Replays labels s) {conn : Connection} (hConn : s.connections[i]? = some conn)
    (t' : ForwardThread) (hOther : ∀ j e, ¬ (j = i ∧ e = d) → l.call j e = none)
    (hSelf : ∀ iterations last, callsOf i d labels = callsBehind iterations last →
      conn.thread d = .behind iterations last →
      ∃ iterations last, callsOf i d (labels ++ [l]) = callsBehind iterations last ∧
        t' = .behind iterations last) :
    Replays (labels ++ [l]) (s.putThread i d t') := by
  intro j e
  by_cases hSame : j = i ∧ e = d
  · obtain ⟨rfl, rfl⟩ := hSame
    have hThread : s.threadAt j e = some (conn.thread e) := by
      rw [threadAt, hConn]
      rfl
    have hBefore := h j e
    rw [hThread] at hBefore
    obtain ⟨iterations, last, hCalls, hBehind⟩ := hBefore
    rw [threadAt_putThread hConn, if_pos ⟨rfl, rfl⟩]
    exact hSelf iterations last hCalls hBehind
  · apply h.other _ (hOther j e hSame)
    rw [threadAt_putThread hConn, if_neg hSame]

/-- **One step.** -/
theorem Replays.step {config : LoadBalancerConfiguration} {labels : List Event} {s s' : Proxy}
    {l : Event} (h : Replays labels s) (hStep : Step config s l s') :
    Replays (labels ++ [l]) s' := by
  cases hStep with
  | acceptFails hPc | accepts hPc | declines hPc | chooses hPc | socketFails hPc
  | socketOpens hPc =>
    intro i d
    exact h.other rfl rfl
  | connects hPc hSocket =>
    intro i d
    rcases lt_trichotomy i s.connections.length with hLt | rfl | hGt
    · apply h.other ?_ rfl
      simp [threadAt, List.getElem?_append_left hLt]
    · -- the new thread has made no call
      have hNone := h s.connections.length d
      simp only [threadAt, List.getElem?_eq_none (Nat.le_refl _), Option.map_none] at hNone
      simp only [threadAt, List.getElem?_concat_length, Option.map_some]
      refine ⟨[], none, ?_, rfl⟩
      rw [callsOf_concat, hNone]
      rfl
    · apply h.other ?_ rfl
      have hLe : s.connections.length + 1 ≤ i := hGt
      simp [threadAt, List.getElem?_eq_none, hLe, Nat.le_of_lt hGt]
  | @recv i conn hConn d hPc result hSocket =>
    refine h.call hConn _ ?_ ?_
    · intro j e hNe
      exact if_neg hNe
    · intro iterations last hCalls hBehind
      rw [hBehind] at hPc ⊢
      obtain rfl := ForwardThread.behind_receiving hPc
      refine ⟨iterations, some result, ?_, ForwardThread.recv_behind iterations result⟩
      rw [callsOf_concat, hCalls, Event.call, if_pos ⟨rfl, rfl⟩]
      simp [callsBehind]
  | @send i conn hConn d buffer hPc result hSocket =>
    refine h.call hConn _ ?_ ?_
    · intro j e hNe
      exact if_neg hNe
    · intro iterations last hCalls hBehind
      rw [hBehind] at hPc ⊢
      obtain rfl := ForwardThread.behind_sending hPc
      refine ⟨iterations ++ [⟨buffer, result⟩], none, ?_,
        ForwardThread.send_behind iterations buffer result⟩
      rw [callsOf_concat, hCalls, Event.call, if_pos ⟨rfl, rfl⟩]
      simp [callsBehind, Iteration.calls]

/-- Every thread of a run. -/
theorem exists_behind {config : LoadBalancerConfiguration} {labels : List Event} {s : Proxy}
    (hRun : Trace (Step config) listening labels s) {i : Nat} {conn : Connection}
    (hConn : s.connections[i]? = some conn) (d : Direction) :
    ∃ iterations last, callsOf i d labels = callsBehind iterations last ∧
      conn.thread d = .behind iterations last := by
  have hStart : Replays [] listening := by
    intro i d
    simp [threadAt, listening, callsOf]
  have hReplays : Replays labels s :=
    hRun.invariant hStart fun _ _ _ _ h hStep => h.step hStep
  have hThread : s.threadAt i d = some (conn.thread d) := by
    rw [threadAt, hConn]
    rfl
  have hHere := hReplays i d
  rwa [hThread] at hHere

/-- **What a connection forwards.** In every run, each thread of each connection has made the calls
of complete iterations of its loop and of at most one more `recv`. It has received the bytes that
these calls have read, it has sent on a part of every buffer in their order, so that no byte is sent
twice, out of order or from elsewhere, and what it has sent on is a prefix of what it has received
when nothing is accepted behind a gap. -/
theorem forwards {config : LoadBalancerConfiguration} {labels : List Event} {s : Proxy}
    (hRun : Trace (Step config) listening labels s) {i : Nat} {conn : Connection}
    (hConn : s.connections[i]? = some conn) (d : Direction) :
    ∃ iterations last, callsOf i d labels = callsBehind iterations last ∧
      (conn.thread d).received = iterations.flatMap Iteration.buffer ++ last.join.getD [] ∧
      (conn.thread d).accepted = iterations.flatMap Iteration.accepted ∧
      (conn.thread d).accepted.Sublist (conn.thread d).received ∧
      (NothingAfterGap (iterations.map Iteration.transfer) →
        (conn.thread d).accepted <+: (conn.thread d).received) := by
  obtain ⟨iterations, last, hCalls, hBehind⟩ := exists_behind hRun hConn d
  rw [hBehind]
  refine ⟨iterations, last, hCalls, rfl, rfl, ?_, ?_⟩
  · exact (accepted_sublist iterations).trans (List.sublist_append_left _ _)
  · intro hGap
    exact (accepted_of_nothingAfterGap hGap).trans (List.prefix_append _ _)

/-- The first client sends two bytes, which are sent on. -/
theorem exists_forwarded_chunk :
    ∃ (s : Proxy) (conn : Connection), s.connections[0]? = some conn ∧
      Trace (Step (testConfig "ROUND_ROBIN")) listening
        [.accept true, .choose (.connectTo 0 default), .socket true, .connect true,
          .recv 0 .clientToNode (some [1, 2]), .send 0 .clientToNode (some 2)] s := by
  let conn : Connection := ⟨1, some 2, true, fun _ => .start⟩
  let sending : ForwardThread := ForwardThread.start.recv (some [1, 2])
  have hConn : oneConnection.connections[0]? = some conn := rfl
  have hRecv : Step (testConfig "ROUND_ROBIN") oneConnection
      (.recv 0 .clientToNode (some [1, 2])) (oneConnection.putThread 0 .clientToNode sending) :=
    .recv hConn rfl nofun
  have hConn' : (oneConnection.putThread 0 .clientToNode sending).connections[0]? =
      some (conn.putThread .clientToNode sending) := rfl
  have hSend : Step (testConfig "ROUND_ROBIN") (oneConnection.putThread 0 .clientToNode sending)
      (.send 0 .clientToNode (some 2)) ((oneConnection.putThread 0 .clientToNode sending).putThread
        0 .clientToNode (sending.send [1, 2] (some 2))) :=
    .send hConn' rfl nofun
  exact ⟨_, _, rfl, ((oneConnection_trace default).snoc hRecv).snoc hSend⟩

/-- A chunk of two bytes is sent on. -/
theorem forwards_oneConnection :
    ∃ (conn : Connection) (iterations : List Iteration) (last : Option (Option Bytes)),
      callsOf 0 .clientToNode [.accept true, .choose (.connectTo 0 default), .socket true,
          .connect true, .recv 0 .clientToNode (some [1, 2]), .send 0 .clientToNode (some 2)] =
        callsBehind iterations last ∧
      (conn.thread .clientToNode).received =
        iterations.flatMap Iteration.buffer ++ last.join.getD [] ∧
      (conn.thread .clientToNode).accepted = iterations.flatMap Iteration.accepted ∧
      (conn.thread .clientToNode).accepted.Sublist (conn.thread .clientToNode).received ∧
      (NothingAfterGap (iterations.map Iteration.transfer) →
        (conn.thread .clientToNode).accepted <+: (conn.thread .clientToNode).received) := by
  obtain ⟨s, conn, hConn, hRun⟩ := exists_forwarded_chunk
  exact ⟨conn, forwards hRun hConn .clientToNode⟩

end Proxy

end Balancer
